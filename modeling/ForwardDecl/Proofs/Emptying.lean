import ForwardDecl.Proofs.Repeating

/-! # When no line is left

Blank lines are kept wherever they stand, and a decorator that is left out has a
class declaration after it that is kept.  So removing keeps nothing but empty lines
just if each line of the text is empty or a marker that stands alone (`Hollow`,
`Pass.remove_hollow_iff`).

Whether there are lines at all is asked before the tail is cut.  If there are none,
the text counts as empty, and nothing is modified; but the lines of the source are
not given back.  If there are one or two empty lines, they are cut afterwards, and the
text is emptied (`emptied_iff`).
-/
namespace ForwardDecl
open Marked Conversion

/-- Each of the lines is empty or a marker that stands alone. -/
def Hollow (ls : List Line) : Prop := ∀ l ∈ ls, l = [] ∨ Marker.isLoose (stripped l) = true

instance (ls : List Line) : Decidable (Hollow ls) := inferInstanceAs (Decidable (∀ _ ∈ _, _))

namespace Pass

/-! ## Removing from a hollow text -/

/-- A run that may end keeps a class declaration where one is awaited. -/
theorem class_kept_of_steps {last : Line} {site : Site} {marked : List (Line × Bool)}
    (h : Steps (.awaitingClass last) marked site) (hc : site.Closed) :
    ∃ c ∈ kept marked, isClassDeclaration (stripped c) = true := by
  obtain ⟨gap, c, rest, rfl, -, hcd⟩ := awaited_of_steps h hc
  exact ⟨c, by simp, hcd⟩

/-- A run that keeps nothing but empty lines is over a hollow text. -/
theorem hollow_of_steps {site : Site} {marked : List (Line × Bool)}
    (h : Steps .outside marked site) (hc : site.Closed) (hk : ∀ l ∈ kept marked, l = []) :
    Hollow (lines marked) := by
  generalize hw : Site.outside = start at h
  induction h with
  | nil => nofun
  | @cons _ next _ l b marked hs ht ih =>
    subst hw
    cases hs with
    | blank _ =>
      obtain ⟨hl, hkept⟩ := List.forall_mem_cons.mp hk
      exact List.forall_mem_cons.mpr ⟨Or.inl hl, ih hc hkept rfl⟩
    | decorator _ =>
      -- the class declaration that has to follow is kept, and it is not empty
      exfalso
      obtain ⟨c, hcm, hclass⟩ := class_kept_of_steps ht hc
      rw [hk c hcm] at hclass
      exact absurd hclass (by decide)
    | loose hkind hs =>
      rw [← stripped_of_lineKind_code hkind] at hs
      exact List.forall_mem_cons.mpr ⟨Or.inr hs, ih hc hk rfl⟩
    | plain hkind _ _ =>
      exfalso
      obtain rfl : l = [] := (List.forall_mem_cons.mp hk).1
      cases hkind

/-- Outside of declarations the lines of a hollow text are kept just if they are empty. -/
theorem steps_hollow {ls : List Line} (h : Hollow ls) :
    Steps .outside (ls.map fun l => (l, decide (l = []))) .outside := by
  induction ls with
  | nil => exact .nil
  | cons l ls ih =>
    obtain ⟨hl, hls⟩ := List.forall_mem_cons.mp h
    rcases hl with rfl | hl
    · have hempty : Step .outside [] true .outside := .blank (by decide)
      exact .cons hempty (ih hls)
    · have hne : l ≠ [] := by
        rintro rfl
        exact absurd hl (by decide)
      have hkind := lineKind_of_mem_fixed (Marker.mem_fixed_iff.mpr (Or.inl hl))
      rw [List.map_cons, decide_eq_false hne]
      exact .cons (.loose hkind hl) (ih hls)

theorem kept_empty (ls : List Line) :
    kept (ls.map fun l => (l, decide (l = []))) = List.replicate (ls.count []) [] := by
  induction ls with
  | nil => rfl
  | cons l ls ih =>
    by_cases hl : l = []
    · rw [List.map_cons, decide_eq_true hl, kept_cons_true, ih, hl, List.count_cons_self,
        List.replicate_succ]
    · rw [List.map_cons, decide_eq_false hl, kept_cons_false, ih, List.count_cons_of_ne hl]

/-- **Removing keeps nothing but empty lines just if the text is hollow**, and then it keeps all of
them. -/
theorem remove_hollow_iff {ls : List Line} {k n : Nat} :
    (remove 0 .outside ls).ending = .complete .remove (List.replicate k []) n ↔
      Hollow ls ∧ ls.count [] = k ∧ k + n = ls.length := by
  have hhollow : Hollow ls → ∃ m, ls.count [] + m = ls.length ∧
      (remove 0 .outside ls).ending = .complete .remove (List.replicate (ls.count []) []) m := by
    intro h
    have hlines : lines (ls.map fun l => (l, decide (l = []))) = ls := by
      simp [lines, Function.comp_def]
    have hrun := remove_complete_of_steps (steps_hollow h) Site.closed_outside 0
    have hlength := length_lines (ls.map fun l => (l, decide (l = [])))
    rw [hlines, kept_empty] at hrun hlength
    rw [List.length_replicate] at hlength
    exact ⟨_, hlength.symm, hrun⟩
  constructor
  · intro h
    obtain ⟨marked, last, hsteps, hlast, rfl, hkept, -⟩ := steps_of_remove h
    have hempty : ∀ l ∈ kept marked, l = [] := by
      intro l hl
      rw [hkept] at hl
      exact List.eq_of_mem_replicate hl
    have hollow := hollow_of_steps hsteps hlast hempty
    obtain ⟨m, hlength, hrun⟩ := hhollow hollow
    obtain ⟨-, hreplicate, rfl⟩ := Ending.complete.inj (h.symm.trans hrun)
    have hcount := congrArg List.length hreplicate
    rw [List.length_replicate, List.length_replicate] at hcount
    exact ⟨hollow, hcount.symm, hcount ▸ hlength⟩
  · rintro ⟨hollow, rfl, hn⟩
    obtain ⟨m, hlength, hrun⟩ := hhollow hollow
    obtain rfl : m = n := by omega
    exact hrun

/-! ## Reasons -/

theorem ne_empty_of_barred {l : Line} {reason : SkipReason} (h : lineKind l = .barred reason) :
    reason ≠ .empty := by
  rcases lineKind_eq_barred_iff.mp h with ⟨-, rfl⟩ | ⟨-, rfl⟩ <;> decide

section
variable {ignore : IgnoreList} {ls : List Line} {read : Nat} {mode : Mode} {reason : SkipReason}

theorem ne_empty_of_add (h : (add ignore read ls).ending = .untouched mode reason) :
    reason ≠ .empty := by
  induction ls generalizing read with
  | nil => cases h
  | cons l ls ih =>
    rcases add_cons ignore read l ls with ⟨-, he⟩ | ⟨reason', hr, he⟩
    · rw [he, Ending.prepend_eq_untouched_iff] at h
      exact ih h
    · obtain ⟨-, rfl⟩ := Ending.untouched.inj (he.symm.trans h)
      rcases hr with hk | ⟨-, -, rfl⟩
      · exact ne_empty_of_barred hk
      · decide

theorem ne_empty_of_remove {site : Site}
    (h : (remove read site ls).ending = .untouched mode reason) : reason ≠ .empty := by
  induction ls generalizing read site with
  | nil => cases site <;> cases h
  | cons l ls ih =>
    rcases step_or_stop site l read ls with ⟨b, next, hs⟩ | ⟨reason', hk, he⟩ | ⟨_, _, -, -, -, he⟩
    · rw [remove_of_step hs, Ending.prepend_eq_untouched_iff] at h
      exact ih h
    · obtain ⟨-, rfl⟩ := Ending.untouched.inj (he.symm.trans h)
      exact ne_empty_of_barred hk
    · rw [he] at h
      cases h

theorem ne_empty_of_toggle (h : (toggle ignore read ls).ending = .untouched mode reason) :
    reason ≠ .empty := by
  induction ls generalizing read with
  | nil => cases h
  | cons l ls ih =>
    by_cases hq : Quiet l
    · have hone : ∀ p ∈ [l], Quiet p := by simpa using hq
      have hcopied := toggle_quiet ignore read ls hone
      rw [List.singleton_append] at hcopied
      rw [hcopied, Ending.prepend_eq_untouched_iff] at h
      exact ih h
    · rcases of_not_quiet hq with hb | ⟨hb, hc | hs⟩
      · cases hk : lineKind l with
        | blank => exact absurd hb (not_bars_of_lineKind_blank hk)
        | code s => exact absurd hb (not_bars_of_lineKind_code hk)
        | barred reason' =>
          simp only [toggle, hk, bar_ending] at h
          obtain ⟨-, rfl⟩ := Ending.untouched.inj h
          exact ne_empty_of_barred hk
      · rw [toggle_class ignore read ls hb hc] at h
        exact ne_empty_of_add h
      · rw [toggle_signal ignore read ls hs] at h
        exact ne_empty_of_remove h

/-- **No pass leaves a text as it is for being empty.** -/
theorem ne_empty_of_run {asked : Mode} (h : (run asked ignore ls).ending = .untouched mode reason) :
    reason ≠ .empty := by
  cases asked with
  | add => exact ne_empty_of_add h
  | remove => exact ne_empty_of_remove h
  | toggle => exact ne_empty_of_toggle h

end
end Pass

/-! ## Conversions -/

namespace Conversion

theorem cutTail_eq_nil_iff {ls : List Line} :
    cutTail ls = [] ↔ ∃ k ≤ 2, ls = List.replicate k [] := by
  constructor
  · intro h
    obtain ⟨k, hk, he⟩ := cutTail_append_replicate ls
    rw [h] at he
    exact ⟨k, hk, he.symm⟩
  · rintro ⟨k, hk, rfl⟩
    have hcases : k = 0 ∨ k = 1 ∨ k = 2 := by omega
    rcases hcases with rfl | rfl | rfl <;> rfl

variable {source : List Line} {e : Ending} {r r' : Converted}

theorem Finished.unique (h : Finished source e r) (h' : Finished source e r') : r = r' := by
  rw [← finish_eq_ok_iff] at h h'
  exact Except.ok.inj (h.symm.trans h')

/-- A result without lines comes from an empty source, or from a pass that kept at most two lines,
all of them empty. -/
theorem Finished.of_lines_nil (h : Finished source e r) (hl : r.lines = []) :
    source = [] ∨ ∃ k n, e = .complete r.mode (List.replicate k []) n ∧ k ≤ 2 ∧
      (k = 0 ∧ r.skipped = some .empty ∧ r.modifications = 0 ∨
        r.mode ≠ .add ∧ 0 < k ∧ 0 < n ∧ r.skipped = none ∧ r.modifications = k + n) := by
  cases h with
  | untouched mode reason => exact Or.inl hl
  | empty mode n => exact Or.inr ⟨0, n, rfl, Nat.zero_le 2, Or.inl ⟨rfl, rfl, rfl⟩⟩
  | unmodified mode hne => exact absurd hl hne
  | added hne hn => exact absurd hl (by simp [tail])
  | @cut mode out n hm hne hn =>
    obtain ⟨k, hk, rfl⟩ := cutTail_eq_nil_iff.mp hl
    have hpos : 0 < k := by
      apply Nat.pos_of_ne_zero
      rintro rfl
      exact hne rfl
    refine Or.inr ⟨k, n, rfl, hk, Or.inr ⟨hm, hpos, Nat.pos_of_ne_zero hn, rfl, ?_⟩⟩
    dsimp only at hl ⊢
    rw [hl, List.length_replicate, List.length_nil]
    omega

end Conversion

section
variable {mode : Mode} {ignore : IgnoreList} {text : List Char} {r : Converted}

theorem convert_empty (hc : ignore.check = .ok ()) (h : splitLines text = []) :
    convert mode ignore text = .ok ⟨[], mode, 0, some .empty⟩ := by
  refine convert_eq_ok_iff.mpr ⟨hc, ?_⟩
  rw [h]
  cases mode with
  | add | remove | toggle => exact .empty _ 0

theorem splitLines_nil_of_add (h : convert .add ignore text = .ok r) (hl : r.lines = []) :
    splitLines text = [] := by
  rcases (convert_eq_ok_iff.mp h).2.of_lines_nil hl with hnil | ⟨k, n, he, -, hk | ⟨hm, -⟩⟩
  · exact hnil
  · obtain ⟨rfl, -⟩ := hk
    rw [mode_of_convert_add h] at he
    exact List.sublist_nil.mp (Pass.output_of_complete he).conserves.1
  · exact absurd (mode_of_convert_add h) hm

/-- Toggling that leaves no line of a text removes as removing does: it has copied nothing but
empty lines before it found the direction. -/
theorem convert_remove_of_toggle (h : convert .toggle ignore text = .ok r) (hm : r.mode = .remove)
    (hl : r.lines = []) : convert .remove ignore text = .ok r := by
  have hf := (convert_eq_ok_iff.mp h).2
  have hmode := hf.mode?_eq
  generalize hrun : (Pass.run .toggle ignore (splitLines text)).ending = e at hf hmode
  obtain ⟨before, rest, hsplit, hq, he, ⟨hremove, -⟩ | ⟨-, l, after, rfl, hs⟩⟩ :=
    Pass.removing_of_run ignore _ hrun (by simp [hmode, hm]) (by simp [hmode, hm])
  · cases hremove
  · rcases hf.of_lines_nil hl with hnil | ⟨k, n, hend, -⟩
    · rw [hsplit] at hnil
      cases before <;> cases hnil
    · obtain ⟨kept, m, -, hout, -⟩ := Ending.prepend_eq_complete_iff.mp (he.symm.trans hend)
      have hempty : ∀ p ∈ before, p = [] := by
        intro p hp
        apply List.eq_of_mem_replicate
        rw [hout]
        exact List.mem_append_left _ hp
      rw [← h]
      refine (convert_toggle_eq_remove hsplit hs ?_).symm
      intro p hp
      refine ⟨hq p hp, ?_⟩
      rw [hempty p hp]
      decide

/-- **A result without lines is what removing gives**, unless the text is empty. -/
theorem convert_remove_of_lines_nil (h : convert mode ignore text = .ok r) (hl : r.lines = []) :
    splitLines text = [] ∨ convert .remove ignore text = .ok r := by
  cases mode with
  | add => exact Or.inl (splitLines_nil_of_add h hl)
  | remove => exact Or.inr h
  | toggle =>
    cases hm : r.mode with
    | add => exact Or.inl (splitLines_nil_of_add (convert_add_of_toggle h hm) hl)
    | remove => exact Or.inr (convert_remove_of_toggle h hm hl)
    | toggle => exact Or.inl ((toggle_unresolved h hm).2.symm.trans hl)

/-- A result of removing without lines: the text is hollow, and if it is not taken for an empty
one, the lines that were kept are cut. -/
theorem hollow_of_lines_nil (h : convert .remove ignore text = .ok r) (hl : r.lines = [])
    (hne : splitLines text ≠ []) :
    Hollow (splitLines text) ∧
      ((splitLines text).count [] = 0 ∧ r.skipped = some .empty ∧ r.modifications = 0 ∨
        0 < (splitLines text).count [] ∧ (splitLines text).count [] ≤ 2 ∧
          (splitLines text).count [] < (splitLines text).length ∧ r.skipped = none) := by
  obtain ⟨k, n, he, hk, hcase⟩ :=
    ((convert_eq_ok_iff.mp h).2.of_lines_nil hl).resolve_left hne
  rw [mode_of_convert_remove h] at he
  obtain ⟨hollow, rfl, hlength⟩ := Pass.remove_hollow_iff.mp he
  refine ⟨hollow, ?_⟩
  rcases hcase with ⟨hzero, hs, hn⟩ | ⟨-, hpos, hn, hs, -⟩
  · exact Or.inl ⟨hzero, hs, hn⟩
  · exact Or.inr ⟨hpos, hk, by omega, hs⟩

/-- Removing from a hollow text finishes with its empty lines. -/
theorem finished_of_hollow (h : convert .remove ignore text = .ok r)
    (hollow : Hollow (splitLines text)) :
    Finished (splitLines text) (.complete .remove (List.replicate ((splitLines text).count []) [])
      ((splitLines text).length - (splitLines text).count [])) r := by
  have hle := List.count_le_length (a := ([] : Line)) (l := splitLines text)
  have he := Pass.remove_hollow_iff.mpr ⟨hollow, rfl, Nat.add_sub_of_le hle⟩
  have hf := (convert_eq_ok_iff.mp h).2
  rwa [show (Pass.run .remove ignore (splitLines text)).ending = _ from he] at hf

theorem forall_isLoose_iff {ls : List Line} :
    (∀ l ∈ ls, Marker.isLoose (stripped l) = true) ↔ Hollow ls ∧ ls.count [] = 0 := by
  rw [List.count_eq_zero]
  constructor
  · intro h
    refine ⟨fun l hl => Or.inr (h l hl), ?_⟩
    intro hnil
    exact absurd (h [] hnil) (by decide)
  · rintro ⟨hollow, hnil⟩ l hl
    refine (hollow l hl).resolve_left ?_
    rintro rfl
    exact hnil hl

/-- **When a conversion leaves no line.**  A conversion that modifies a text empties it just if
the text is made of one or two empty lines and of markers that stand alone, and removing is what
it does.  It takes a text for an empty one just if the text is empty, or if it is made of such
markers only, and removing is what it does; then it gives no lines, whatever the text was. -/
theorem emptied_iff (h : convert mode ignore text = .ok r) :
    (0 < r.modifications ∧ r.lines = [] ↔
      convert .remove ignore text = .ok r ∧ Hollow (splitLines text) ∧
        0 < (splitLines text).count [] ∧ (splitLines text).count [] ≤ 2 ∧
        (splitLines text).count [] < (splitLines text).length) ∧
    (r.skipped = some .empty ↔ splitLines text = [] ∨ convert .remove ignore text = .ok r ∧
      ∀ l ∈ splitLines text, Marker.isLoose (stripped l) = true) ∧
    (r.skipped = some .empty → r.lines = [] ∧ r.modifications = 0) := by
  have hskipped : r.skipped = some .empty → r.lines = [] ∧ r.modifications = 0 := by
    intro hs
    obtain ⟨hn, ⟨he, -⟩ | ⟨-, hl⟩⟩ := (convert_eq_ok_iff.mp h).2.of_skipped hs
    · exact absurd rfl (Pass.ne_empty_of_run he)
    · exact ⟨hl, hn⟩
  have hempty : splitLines text = [] → r = ⟨[], mode, 0, some .empty⟩ := by
    intro hnil
    exact Except.ok.inj (h.symm.trans (convert_empty (check_of_convert h) hnil))
  refine ⟨⟨?_, ?_⟩, ⟨?_, ?_⟩, hskipped⟩
  · rintro ⟨hm, hl⟩
    have hne : splitLines text ≠ [] := by
      intro hnil
      rw [hempty hnil] at hm
      exact absurd hm (Nat.lt_irrefl 0)
    have hr := (convert_remove_of_lines_nil h hl).resolve_left hne
    obtain ⟨hollow, ⟨-, -, hn⟩ | ⟨hpos, hle, hlt, -⟩⟩ := hollow_of_lines_nil hr hl hne
    · omega
    · exact ⟨hr, hollow, hpos, hle, hlt⟩
  · rintro ⟨hr, hollow, hpos, hle, hlt⟩
    have hcut : Finished (splitLines text) (.complete .remove
        (List.replicate ((splitLines text).count []) [])
        ((splitLines text).length - (splitLines text).count [])) _ :=
      .cut (by decide) (by simp; omega) (by omega)
    obtain rfl := (finished_of_hollow hr hollow).unique hcut
    exact ⟨by dsimp only; omega, cutTail_eq_nil_iff.mpr ⟨_, hle, rfl⟩⟩
  · intro hs
    by_cases hnil : splitLines text = []
    · exact Or.inl hnil
    · have hl := (hskipped hs).1
      have hr := (convert_remove_of_lines_nil h hl).resolve_left hnil
      obtain ⟨hollow, ⟨hzero, -⟩ | ⟨-, -, -, hnone⟩⟩ := hollow_of_lines_nil hr hl hnil
      · exact Or.inr ⟨hr, forall_isLoose_iff.mpr ⟨hollow, hzero⟩⟩
      · rw [hnone] at hs
        cases hs
  · rintro (hnil | ⟨hr, hloose⟩)
    · rw [hempty hnil]
    · obtain ⟨hollow, hzero⟩ := forall_isLoose_iff.mp hloose
      have hf := finished_of_hollow hr hollow
      rw [hzero] at hf
      obtain rfl := hf.unique (.empty .remove _)
      rfl

/-- What is left of an added text whose classes were taken out by hand, and a text of one
marker. -/
theorem emptied_iff_cleanup :
    (∃ r, convert .toggle [] "from forward import *\n\ndel forward\ndel continue_\n\n".toList =
        .ok r ∧ 0 < r.modifications ∧ r.lines = [] ∧
      convert .remove [] "from forward import *\n\ndel forward\ndel continue_\n\n".toList = .ok r) ∧
    ∃ r, convert .remove [] "  del forward\n".toList = .ok r ∧ r.skipped = some .empty ∧
      r.lines = [] ∧ r.modifications = 0 := by
  constructor
  · have h : convert .toggle [] "from forward import *\n\ndel forward\ndel continue_\n\n".toList =
        .ok ⟨[], .remove, 5, none⟩ := by decide +kernel
    have hemptied := (emptied_iff h).1.mp ⟨by decide, rfl⟩
    exact ⟨_, h, by decide, rfl, hemptied.1⟩
  · have h : convert .remove [] "  del forward\n".toList =
        .ok ⟨[], .remove, 0, some .empty⟩ := by decide +kernel
    have hloose : ∀ l ∈ splitLines "  del forward\n".toList, Marker.isLoose (stripped l) = true := by
      decide +kernel
    have hskipped := (emptied_iff h).2.1.mpr (Or.inr ⟨h, hloose⟩)
    exact ⟨_, h, hskipped, (emptied_iff h).2.2 hskipped⟩

/-- **A text can be emptied.**  The first text is modified and no line of it is left.  The second
one is said to be left alone for being empty, and yet its line is not given back. -/
theorem text_emptied :
    (∃ r, convert .remove [] "from forward import *\n\ndel forward\ndel continue_\n\n".toList =
        .ok r ∧ 0 < r.modifications ∧ r.lines = []) ∧
    ∃ r, convert .remove [] "del forward\n".toList = .ok r ∧ r.skipped = some .empty ∧
      r.lines ≠ splitLines "del forward\n".toList :=
  ⟨⟨⟨[], .remove, 5, none⟩, by decide +kernel, by decide, rfl⟩,
    ⟨[], .remove, 0, some .empty⟩, by decide +kernel, rfl, by decide +kernel⟩

end
end ForwardDecl
