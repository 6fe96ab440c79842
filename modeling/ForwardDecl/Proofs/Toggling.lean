import ForwardDecl.Proofs.Adding

/-! # Which way toggling goes

A toggling pass copies lines until one of them tells the direction.  A line that
tells nothing and does not bar the text is *quiet*; over quiet lines, adding and
toggling do the same, and so does removing if no cleanup line is among them.
The first line that is not quiet settles the rest (`Resolution`), and so toggling
agrees with the pass that it hands the text to (`toggle_agrees`).
-/
namespace ForwardDecl
open Marked

/-- A line that neither bars its text nor tells a toggling pass the direction. -/
def Quiet (l : Line) : Prop :=
  ¬ Bars l ∧ startsClass (stripped l) = false ∧ stripped l ≠ Marker.importLine ∧
    stripped l ≠ Marker.decorator

instance (l : Line) : Decidable (Quiet l) := inferInstanceAs (Decidable (_ ∧ _))

/-- A line that tells a toggling pass to remove. -/
def SignalsRemoval (l : Line) : Prop :=
  stripped l = Marker.importLine ∨ stripped l = Marker.decorator

/-- What a line that is not quiet can be. -/
theorem of_not_quiet {l : Line} (h : ¬ Quiet l) :
    Bars l ∨ ¬ Bars l ∧ (startsClass (stripped l) = true ∨ SignalsRemoval l) := by
  by_cases hb : Bars l
  · exact Or.inl hb
  · refine Or.inr ⟨hb, ?_⟩
    by_contra hn
    obtain ⟨hc, hs⟩ := not_or.mp hn
    obtain ⟨hi, hd⟩ := not_or.mp hs
    exact h ⟨hb, Bool.eq_false_iff.mpr hc, hi, hd⟩

namespace Pass
variable (ignore : IgnoreList) (read : Nat) (ls : List Line) {l : Line} {before : List Line}

/-! ## Over quiet lines -/

theorem toggle_quiet (h : ∀ p ∈ before, Quiet p) :
    (toggle ignore read (before ++ ls)).ending =
      (toggle ignore (read + before.length) ls).ending.prepend before 0 := by
  refine Ending.prepend_of_copies (f := fun n ls => (toggle ignore n ls).ending) ?_ read ls
  intro p hp n ls
  obtain ⟨hb, hc, hi, hd⟩ := h p hp
  rcases lineKind_of_not_bars hb with hk | hk
  · simp [toggle, hk]
  · simp [toggle, hk, hc, hi, hd]

/-- Adding copies quiet lines, whether or not they are to be ignored. -/
theorem add_quiet (h : ∀ p ∈ before, Quiet p) :
    (add ignore read (before ++ ls)).ending =
      (add ignore (read + before.length) ls).ending.prepend before 0 := by
  refine Ending.prepend_of_copies (f := fun n ls => (add ignore n ls).ending) ?_ read ls
  intro p hp n ls
  obtain ⟨hb, hc, -, hd⟩ := h p hp
  rcases add_cons ignore n p ls with ⟨-, he⟩ | ⟨reason, hr | ⟨hd', -⟩, -⟩
  · rwa [addition_of_none (declares_of_not_startsClass hc)] at he
  · exact absurd (bars_of_lineKind hr) hb
  · exact absurd hd' hd

/-- Removing copies quiet lines that are no cleanup lines. -/
theorem remove_quiet (h : ∀ p ∈ before, Quiet p ∧ stripped p ≠ Marker.deleteForward ∧
      stripped p ≠ Marker.deleteContinue) :
    (remove read .outside (before ++ ls)).ending =
      (remove (read + before.length) .outside ls).ending.prepend before 0 := by
  have hplain : ∀ p ∈ before, ¬ Bars p ∧ stripped p ∉ Marker.fixed := by
    intro p hp
    obtain ⟨⟨hb, -, hi, hd⟩, hf, hc⟩ := h p hp
    exact ⟨hb, by simp [Marker.fixed, hi, hf, hc, hd]⟩
  have hrun := remove_of_steps (steps_plain hplain) read ls
  rwa [lines_map_true, kept_map_true, leftOut_map_true, List.length_map] at hrun

/-! ## At a line that is not quiet -/

theorem toggle_class (hb : ¬ Bars l) (hc : startsClass (stripped l) = true) :
    (toggle ignore read (l :: ls)).ending = (add ignore read (l :: ls)).ending := by
  rcases lineKind_of_not_bars hb with hk | hk
  · rw [lineKind_eq_blank_iff.mp hk] at hc
    cases hc
  · simp only [toggle, hk, hc, if_true, tell_ending]

theorem toggle_signal (hs : SignalsRemoval l) :
    (toggle ignore read (l :: ls)).ending = (remove read .outside (l :: ls)).ending := by
  rcases hs with hs | hs
  · have hk : lineKind l = .code Marker.importLine :=
      lineKind_eq_code_iff.mpr ⟨hs, by decide, by decide, by decide⟩
    simp [toggle, hk, startsClass_importLine]
  · have hk : lineKind l = .code Marker.decorator :=
      lineKind_eq_code_iff.mpr ⟨hs, by decide, by decide, by decide⟩
    have hne : Marker.decorator ≠ Marker.importLine := by decide
    simp [toggle, hk, startsClass_decorator, hne]

theorem toggle_barred (hb : Bars l) :
    ∃ reason, (toggle ignore read (l :: ls)).ending = .untouched .toggle reason := by
  cases hk : lineKind l with
  | blank => exact absurd hb (not_bars_of_lineKind_blank hk)
  | code s => exact absurd hb (not_bars_of_lineKind_code hk)
  | barred reason => exact ⟨reason, by simp [toggle, hk]⟩

/-! ## Resolution -/

/-- **How a toggling pass over some lines ends.**  The first line that is not
quiet, if there is one, decides. -/
inductive Resolution (ignore : IgnoreList) (read : Nat) : List Line → Ending → Prop
  | unresolved {ls : List Line} (hq : ∀ p ∈ ls, Quiet p) :
      Resolution ignore read ls (.complete .toggle ls 0)
  | barred {before after : List Line} {l : Line} (hq : ∀ p ∈ before, Quiet p) (hb : Bars l)
      (reason : SkipReason) :
      Resolution ignore read (before ++ l :: after) (.untouched .toggle reason)
  | adds {before after : List Line} {l : Line} (hq : ∀ p ∈ before, Quiet p)
      (hc : startsClass (stripped l) = true) :
      Resolution ignore read (before ++ l :: after)
        (add ignore read (before ++ l :: after)).ending
  | removes {before after : List Line} {l : Line} (hq : ∀ p ∈ before, Quiet p)
      (hs : SignalsRemoval l) :
      Resolution ignore read (before ++ l :: after)
        ((remove (read + before.length) .outside (l :: after)).ending.prepend before 0)

theorem toggle_resolution (ignore : IgnoreList) (read : Nat) (ls : List Line) :
    Resolution ignore read ls (toggle ignore read ls).ending := by
  cases hf : ls.find? (¬ Quiet ·) with
  | none =>
    have hq : ∀ p ∈ ls, Quiet p := by simpa using hf
    have hend := toggle_quiet ignore read [] hq
    rw [List.append_nil] at hend
    rw [hend]
    simpa [toggle, Ending.prepend] using Resolution.unresolved hq
  | some l =>
    obtain ⟨hl, before, after, rfl, hbefore⟩ := List.find?_eq_some_iff_append.mp hf
    have hq : ∀ p ∈ before, Quiet p := by simpa using hbefore
    rw [toggle_quiet ignore read _ hq]
    rcases of_not_quiet (of_decide_eq_true hl) with hb | ⟨hb, hc | hs⟩
    · obtain ⟨reason, he⟩ := toggle_barred ignore (read + before.length) after hb
      rw [he]
      exact .barred hq hb reason
    · rw [toggle_class _ _ _ hb hc, ← add_quiet ignore read _ hq]
      exact .adds hq hc
    · rw [toggle_signal _ _ _ hs]
      exact .removes hq hs

/-- **A pass that removes, or finds a text malformed, is a removing pass** from some place on, with
quiet lines above it: from the beginning if that is what it was asked for, else from the line that
told the direction. -/
theorem removing_of_run {mode : Mode} {e : Ending} (h : (run mode ignore ls).ending = e)
    (ha : e.mode? ≠ some .add) (ht : e.mode? ≠ some .toggle) :
    ∃ before rest, ls = before ++ rest ∧ (∀ p ∈ before, Quiet p) ∧
      e = (remove before.length .outside rest).ending.prepend before 0 ∧
      (mode = .remove ∧ before = [] ∨
        mode = .toggle ∧ ∃ l after, rest = l :: after ∧ SignalsRemoval l) := by
  subst h
  cases mode with
  | add => exact absurd (add_mode ignore 0 ls) ha
  | remove => exact ⟨[], ls, rfl, nofun, (Ending.prepend_nil _).symm, Or.inl ⟨rfl, rfl⟩⟩
  | toggle =>
    have hres := toggle_resolution ignore 0 ls
    rw [show (run .toggle ignore ls).ending = (toggle ignore 0 ls).ending from rfl] at ha ht ⊢
    generalize (toggle ignore 0 ls).ending = e at hres ha ht ⊢
    cases hres with
    | unresolved hq => exact absurd rfl ht
    | barred hq hb reason => exact absurd rfl ht
    | adds hq hc => exact absurd (add_mode ignore 0 _) ha
    | @removes before after l hq hs =>
      rw [Nat.zero_add]
      exact ⟨before, l :: after, rfl, hq, rfl, Or.inr ⟨rfl, l, after, rfl, hs⟩⟩

end Pass

/-! ## Agreement -/

section Agreement
variable {ignore : IgnoreList} {text : List Char} {r : Converted}

/-- A conversion that toggles, opened up: the lines, the ending of its pass, how
that came about, and how the conversion finished. -/
theorem convert_toggle_cases (h : convert .toggle ignore text = .ok r) :
    ∃ ls e, splitLines text = ls ∧ (Pass.toggle ignore 0 ls).ending = e ∧
      Pass.Resolution ignore 0 ls e ∧ Conversion.Finished ls e r :=
  ⟨_, _, rfl, rfl, Pass.toggle_resolution ignore 0 (splitLines text), (convert_eq_ok_iff.mp h).2⟩

/-- Toggling that reports adding is adding. -/
theorem convert_add_of_toggle (h : convert .toggle ignore text = .ok r) (hm : r.mode = .add) :
    convert .add ignore text = .ok r := by
  obtain ⟨ls, e, hls, he, hres, hf⟩ := convert_toggle_cases h
  have hmode := hf.mode?_eq
  rw [hm] at hmode
  cases hres with
  | unresolved hq => cases hmode
  | barred hq hb reason => cases hmode
  | adds hq hc =>
    rw [← hls] at he
    rw [← h]
    exact convert_congr .add .toggle he.symm
  | removes hq hs =>
    rw [Ending.mode?_prepend] at hmode
    cases Pass.remove_mode hmode

/-- Toggling removes if a line says so before any other line tells a direction. -/
theorem convert_toggle_eq_remove {before after : List Line} {l : Line}
    (hsplit : splitLines text = before ++ l :: after) (hs : SignalsRemoval l)
    (hbefore : ∀ p ∈ before, Quiet p ∧ stripped p ≠ Marker.deleteForward ∧
      stripped p ≠ Marker.deleteContinue) :
    convert .toggle ignore text = convert .remove ignore text := by
  apply convert_congr .toggle .remove
  have hq : ∀ p ∈ before, Quiet p := fun p hp => (hbefore p hp).1
  show (Pass.toggle ignore 0 (splitLines text)).ending =
    (Pass.remove 0 .outside (splitLines text)).ending
  rw [hsplit, Pass.toggle_quiet _ _ _ hq, Pass.toggle_signal _ _ _ hs,
    Pass.remove_quiet _ _ hbefore]

/-- Toggling adds if a class begins before any other line tells a direction. -/
theorem toggle_mode_of_class {before after : List Line} {l : Line}
    (hsplit : splitLines text = before ++ l :: after) (hq : ∀ p ∈ before, Quiet p)
    (hb : ¬ Bars l) (hc : startsClass (stripped l) = true)
    (h : convert .toggle ignore text = .ok r) : r.mode = .add := by
  have hmode := (convert_eq_ok_iff.mp h).2.mode?_eq
  change (Pass.toggle ignore 0 (splitLines text)).ending.mode? = _ at hmode
  rw [hsplit, Pass.toggle_quiet _ _ _ hq, Ending.mode?_prepend, Pass.toggle_class _ _ _ hb hc,
    Pass.add_mode] at hmode
  exact (Option.some.inj hmode).symm

/-- Toggling that reports no direction has seen only quiet lines, or it was
barred. -/
theorem toggle_unresolved (h : convert .toggle ignore text = .ok r) (hm : r.mode = .toggle) :
    r.modifications = 0 ∧ r.lines = splitLines text := by
  obtain ⟨ls, e, hls, -, hres, hf⟩ := convert_toggle_cases h
  have hmode := hf.mode?_eq
  rw [hm] at hmode
  rw [hls]
  cases hres with
  | unresolved hq =>
    cases hf with
    | empty mode n => exact ⟨rfl, rfl⟩
    | unmodified mode hl => exact ⟨rfl, rfl⟩
    | cut hm hl hn => exact absurd rfl hn
  | barred hq hb reason =>
    cases hf
    exact ⟨rfl, rfl⟩
  | adds hq hc =>
    rw [Pass.add_mode] at hmode
    cases hmode
  | removes hq hs =>
    rw [Ending.mode?_prepend] at hmode
    cases Pass.remove_mode hmode

/-- **Toggling agrees with the direction that it finds.**  If it reports adding,
adding gives the same result.  If the first line that tells a direction tells
removing, and above it no line bars the text or belongs to the cleanup, it gives
what removing gives, be it a result or an error.  If it reports no direction, the
text is as it was. -/
theorem toggle_agrees (ignore : IgnoreList) (text : List Char) :
    (∀ r, convert .toggle ignore text = .ok r → r.mode = .add →
      convert .add ignore text = .ok r) ∧
    (∀ before l after, splitLines text = before ++ l :: after → SignalsRemoval l →
      (∀ p ∈ before, Quiet p ∧ stripped p ≠ Marker.deleteForward ∧
        stripped p ≠ Marker.deleteContinue) →
      convert .toggle ignore text = convert .remove ignore text) ∧
    (∀ r, convert .toggle ignore text = .ok r → r.mode = .toggle →
      r.modifications = 0 ∧ r.lines = splitLines text) := by
  refine ⟨fun r => convert_add_of_toggle, ?_, fun r => toggle_unresolved⟩
  intro before l after hsplit hs hbefore
  exact convert_toggle_eq_remove hsplit hs hbefore

/-- The three ways: a class after an import, a decorator without its class, and
no class at all. -/
theorem toggle_agrees_each_way :
    (∃ r, convert .toggle [.ofClass "B"] "import os\nclass A:\nclass B:\n".toList = .ok r ∧
      r.mode = .add ∧
      convert .add [.ofClass "B"] "import os\nclass A:\nclass B:\n".toList = .ok r) ∧
    (convert .toggle [] "\n@forward()\nx = 1\n".toList =
      convert .remove [] "\n@forward()\nx = 1\n".toList) ∧
    ∃ r, convert .toggle [] "x = 1\n\n".toList = .ok r ∧ r.mode = .toggle ∧
      r.modifications = 0 ∧ r.lines = splitLines "x = 1\n\n".toList := by
  refine ⟨?_, ?_, ?_⟩
  · let added : Converted := ⟨["from forward import *", "import os", "@forward()", "class A:",
      "    ...", "@continue_(A)", "class _____:", "class B:", "", "del forward", "del continue_",
      ""].map String.toList, .add, 9, none⟩
    have h : convert .toggle [.ofClass "B"] "import os\nclass A:\nclass B:\n".toList =
        .ok added := by decide +kernel
    exact ⟨added, h, rfl, (toggle_agrees _ _).1 added h rfl⟩
  · exact (toggle_agrees [] _).2.1 [[]] "@forward()".toList ["x = 1".toList] (by decide +kernel)
      (Or.inr (by decide +kernel)) (by decide +kernel)
  · have h : convert .toggle [] "x = 1\n\n".toList =
        .ok ⟨["x = 1".toList, []], .toggle, 0, none⟩ := by decide +kernel
    exact ⟨_, h, rfl, (toggle_agrees [] _).2.2 _ h rfl⟩

end Agreement
end ForwardDecl
